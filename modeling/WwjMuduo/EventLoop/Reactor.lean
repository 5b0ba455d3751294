import WwjMuduo.EventLoop
import WwjMuduo.Poller.Collect
import WwjMuduo.Poller.Stale

set_option autoImplicit false

/-! # The loop over its poller

`EventLoop.lean` has a `::poll` that reports the wakeup channel or not, and does not say which handlers
run. Here the loop thread polls the poller of `Poller.lean`, goes through `activeChannels_`, and calls
`handleEvent` of each channel; code of others registers, changes and removes its channels meanwhile.

The constructor registers two channels of the loop's own: the timerfd's, in that of `timerQueue_`, and
the wakeup channel. Nothing is ever done to them again, and `removeChannel` moves the last entry only,
so they stay in the first two places of `pollfds_`. -/

namespace WwjMuduo

/-! ## The first places of the poller's array -/

namespace Tracked

variable {ι : Type*} [DecidableEq ι] {D : Descriptors ι} {s s' : Tracked ι} {c d : ι} {i : ℕ}

/-- A channel is registered for reading, at a place of the array. -/
structure Watches (D : Descriptors ι) (s : Tracked ι) (c : ι) (i : ℕ) : Prop where
  life : s.life c = .registered
  index : (s.channel c).index_ = i
  entry : ∃ revents, s.pollfds_[i]? = some ⟨D.fd c, Channel.kReadEvent.setWidth 16, revents⟩

omit [DecidableEq ι] in
theorem Watches.entry_eq (W : Watches D s c i) : s.entry c = s.pollfds_[i]? :=
  Polling.entry_of_index W.index

/-- The first update takes the next place. -/
theorem watches_of_fresh (I : Inv D s) (hc : s.life c = .fresh) :
    ∃ s', s.step (.update c Channel.kReadEvent) = some s' ∧ Inv D s' ∧
      Watches D s' c s.pollfds_.length ∧ s'.pollfds_.length = s.pollfds_.length + 1 ∧
      s'.life = Function.update s.life c .registered := by
  have hallowed : s.Allowed (.update c Channel.kReadEvent) := by
    show s.life c ≠ .removed
    rw [hc]
    simp
  obtain ⟨s', hstep, I'⟩ := update_inv I c Channel.kReadEvent hallowed
  refine ⟨s', hstep, I', ?_⟩
  obtain ⟨p, hp, rfl⟩ := Option.map_eq_some_iff.1 hstep
  let ch : Channel := { s.channel c with events_ := Channel.kReadEvent }
  let t := s.toPolling.setChannel c ch
  have htc : t.channel c = ch := s.toPolling.setChannel_self c ch
  have hneg : (t.channel c).index_ < 0 := by
    rw [htc]
    exact I.fresh c hc
  have hfd : ch.fd_ = D.fd c := I.fd c
  have hnew := Polling.updateChannel_new hneg
  rw [hp, Option.some.injEq] at hnew
  have hpollfds : p.pollfds_ = s.pollfds_ ++ [ch.pollfd ch.fd_] := by
    rw [hnew, htc]
    rfl
  have hindex : (p.channel c).index_ = (s.pollfds_.length : ℕ) := by
    rw [hnew]
    show (Function.update t.channel c _ c).index_ = _
    rw [Function.update_self]
    rfl
  refine ⟨⟨Function.update_self .., hindex, 0, ?_⟩, ?_, rfl⟩
  · show p.pollfds_[s.pollfds_.length]? = _
    rw [hpollfds, List.getElem?_concat_length, ← hfd]
    rfl
  · show p.pollfds_.length = _
    rw [hpollfds, List.length_append, List.length_singleton]

/-- Updates of other channels leave the entry alone, and what was reported of the channel. -/
theorem Watches.update (I : Inv D s) (W : Watches D s c i) {events : BitVec 32} (hd : d ≠ c)
    (hallowed : s.Allowed (.update d events)) (h : s.step (.update d events) = some s') :
    Watches D s' c i ∧ (s'.channel c).revents_ = (s.channel c).revents_ := by
  obtain ⟨p, hp, rfl⟩ := Option.map_eq_some_iff.1 h
  let ch : Channel := { s.channel d with events_ := events }
  let t := s.toPolling.setChannel d ch
  have hT : t.IndexTable s.registered := I.table.setChannel rfl rfl
  have htc : t.channel c = s.channel c := s.toPolling.setChannel_of_ne ch (Ne.symm hd)
  have hchannel : p.channel c = s.channel c := by
    rcases Polling.updateChannel_eq_some hp with ⟨-, -, hchan⟩ | ⟨-, -, hchan⟩
    · rw [hchan, Function.update_of_ne (Ne.symm hd)]
      exact htc
    · rw [hchan]
      exact htc
  have hor : d ∈ s.registered ∨ (t.channel d).index_ < 0 := by
    cases hlife : s.life d with
    | fresh =>
        right
        rw [(setEvents_channel s d d events).2]
        exact I.fresh d hlife
    | registered => exact .inl hlife
    | removed => exact absurd hlife hallowed
  have hindex : (p.channel c).index_ = i := by rw [hchannel]; exact W.index
  have hentry : p.entry c = t.entry c :=
    Polling.entry_updateChannel_of_ne hT W.life (Ne.symm hd) hor hp
  have hsame : p.pollfds_[i]? = s.pollfds_[i]? := by
    rw [← Polling.entry_of_index hindex, hentry]
    exact Polling.entry_of_index (by rw [htc]; exact W.index)
  refine ⟨⟨?_, hindex, ?_⟩, by show (p.channel c).revents_ = _; rw [hchannel]⟩
  · show Function.update s.life d .registered c = _
    rw [Function.update_of_ne (Ne.symm hd)]
    exact W.life
  · show ∃ revents, p.pollfds_[i]? = _
    rw [hsame]
    exact W.entry

/-- So do removals of channels behind it. -/
theorem Watches.remove (I : Inv D s) (W : Watches D s c i) (hd : (i : ℤ) < (s.channel d).index_)
    (hallowed : s.Allowed (.remove d)) (h : s.step (.remove d) = some s') :
    Watches D s' c i ∧ (s'.channel c).revents_ = (s.channel c).revents_ := by
  have I' : Inv D s' := step_inv I (Run.restrict_eq_some.2 ⟨hallowed, h⟩)
  obtain ⟨-, hlife, -, -, hidx⟩ := remove_eq_some h
  obtain ⟨p, hp, rfl⟩ := Option.map_eq_some_iff.1 h
  obtain ⟨q, hq, -, hent, hperm, -, -, -⟩ := I.table.removeChannel (c := d) hallowed
  obtain rfl : p = q := Option.some.inj (hp.symm.trans hq)
  have hcd : c ≠ d := by
    rintro rfl
    rw [W.index] at hd
    omega
  have hc : c ∈ s.registered := W.life
  obtain ⟨j, hj, pfd, hpfd, -⟩ := I.table.index d hallowed
  have hjlt : j < s.pollfds_.length := (List.getElem?_eq_some_iff.1 hpfd).1
  have hlen : p.pollfds_.length = s.pollfds_.length - 1 := by
    rw [hperm.length_eq, List.length_eraseIdx_of_lt (by omega)]
  -- The place is still taken, and the one that is there was there before.
  have hindex : (p.channel c).index_ = i := by
    obtain ⟨e, he, hei⟩ := I'.table.slot i (by show i < p.pollfds_.length; omega)
    have hei' : (s.channel e).index_ = i := by
      rcases hidx e with hkeep | hmoved
      · exact hkeep.symm.trans hei
      · omega
    have hereg : e ∈ s.registered := by
      have hmem := registered_remove s p d ▸ he
      exact hmem.1
    obtain rfl := I.table.index_inj hereg hc (hei'.trans W.index.symm)
    exact hei
  have hsame : p.pollfds_[i]? = s.pollfds_[i]? := by
    rw [← Polling.entry_of_index hindex, hent c hc hcd]
    exact W.entry_eq
  refine ⟨⟨?_, hindex, ?_⟩, ?_⟩
  · show Function.update s.life d .removed c = _
    rw [Function.update_of_ne hcd]
    exact W.life
  · show ∃ revents, p.pollfds_[i]? = _
    rw [hsame]
    exact W.entry
  · show (p.channel c).revents_ = _
    obtain ⟨-, -, hsame | ⟨e, hmoved⟩⟩ := Polling.removeChannel_eq_some hp
    · rw [hsame]
    · rw [hmoved]
      by_cases hce : c = e
      · subst hce
        rw [Function.update_self]
        rfl
      · rw [Function.update_of_ne hce]

/-- A poll writes `revents` only. -/
theorem Watches.poll (W : Watches D s c i) {revents : ℕ → BitVec 16} {q : Polling ι} {found : List ι}
    (C : Polling.Collected (fun r => 0 < r.toInt) s.registered s.toPolling revents [] q found) :
    Watches D { q with life := s.life } c i := by
  obtain ⟨old, hold⟩ := W.entry
  refine ⟨W.life, (C.channel c).2.trans W.index, revents i, ?_⟩
  show q.pollfds_[i]? = _
  have hpollfds : q.pollfds_ = (s.toPolling.reported revents).pollfds_ := by rw [C.poller]
  rw [hpollfds, Polling.getElem?_reported, hold]
  rfl

end Tracked

/-! ## The loop -/

/-- The channels a loop makes for itself, in the order of their registration. -/
structure OwnChannels (ι : Type*) where
  timerfdChannel_ : ι
  wakeupChannel_ : ι
  ne : timerfdChannel_ ≠ wakeupChannel_

structure Reactor (ι φ τ : Type*) where
  loop : Loop φ τ
  poller_ : Tracked ι
  /-- From the channel that is handled next on. -/
  activeChannels_ : List ι
  /-- There is an expiration to read from the timerfd. -/
  expired : Bool

inductive ReactorEvent (ι φ τ : Type*) where
  /-- a step of the loop that is not about channels, or of another thread -/
  | on (e : LoopEvent φ τ)
  | poll (outcome : PollOutcome)
  | handleEvent
  /-- code that the loop thread runs updates or removes a channel -/
  | call (call : Call ι)
  /-- the timer behind the timerfd expires -/
  | expire

/-- The channel a call is about. -/
def Call.channel {ι : Type*} : Call ι → ι
  | .update c _ => c
  | .remove c => c

/-- The channels of the loop's own have a read callback and no other. -/
def onlyRead : Channel.Callback → Bool
  | .read => true
  | _ => false

/-- What `::poll` says of a descriptor that is watched for reading. -/
def readEvents (readable : Bool) : BitVec 16 := if readable then POLLIN.setWidth 16 else 0

namespace Reactor

variable {ι φ τ : Type*} [DecidableEq ι] [DecidableEq τ]

/-- The constructor. -/
def new (own : OwnChannels ι) (D : Descriptors ι) : Option (Reactor ι φ τ) :=
  ((Tracked.init D).step (.update own.timerfdChannel_ Channel.kReadEvent)).bind fun p =>
    (p.step (.update own.wakeupChannel_ Channel.kReadEvent)).map fun p =>
      { loop := .new, poller_ := p, activeChannels_ := [], expired := false }

/-- What `::poll` can store: for the channels of the loop's own, whether there is something to read. -/
def Possible (own : OwnChannels ι) (s : Reactor ι φ τ) : PollOutcome → Prop
  | .ready revents => s.poller_.Possible revents ∧
    revents (s.poller_.channel own.timerfdChannel_).index_.toNat = readEvents s.expired ∧
    revents (s.poller_.channel own.wakeupChannel_).index_.toNat =
      readEvents (decide (s.loop.wakeupFd_ ≠ 0))
  | .err => True

/-- The steps of the loop that are taken here as they are. -/
def Plain (s : Reactor ι φ τ) : LoopEvent φ τ → Prop
  | .poll _ => False
  | .handleRead => False
  | .doPendingFunctors => s.activeChannels_ = []
  | _ => True

/-- What can happen next. Code of others registers, updates and removes channels of its own, and keeps
    the owners' rule. -/
def Enabled (own : OwnChannels ι) (s : Reactor ι φ τ) : ReactorEvent ι φ τ → Prop
  | .on e => s.Plain e ∧ s.loop.Enabled e
  | .poll outcome => s.loop.place = .polling ∧ s.Possible own outcome
  | .handleEvent => s.loop.place.inHandlers = true ∧ s.loop.task none = .idle
  | .call call => s.loop.Free none ∧ s.poller_.Allowed call ∧
    call.channel ≠ own.timerfdChannel_ ∧ call.channel ≠ own.wakeupChannel_
  | .expire => True

instance (own : OwnChannels ι) (s : Reactor ι φ τ) (outcome : PollOutcome) :
    Decidable (s.Possible own outcome) :=
  match outcome with
  | .ready _ => inferInstanceAs (Decidable (_ ∧ _ = _ ∧ _ = _))
  | .err => inferInstanceAs (Decidable True)

instance (s : Reactor ι φ τ) (e : LoopEvent φ τ) : Decidable (s.Plain e) :=
  match e with
  | .poll _ | .handleRead => inferInstanceAs (Decidable False)
  | .doPendingFunctors => inferInstanceAs (Decidable (s.activeChannels_ = []))
  | .loop | .clearQuit | .test | .swap | .call | .endPending | .queueInLoop _ _ | .runInLoop _ _
  | .quit _ | .finish _ => inferInstanceAs (Decidable True)

instance (own : OwnChannels ι) (s : Reactor ι φ τ) (e : ReactorEvent ι φ τ) :
    Decidable (s.Enabled own e) := by
  cases e <;> unfold Enabled <;> infer_instance

/-- `handleEvent` of a channel. What the callbacks of other channels do comes in steps of its own. -/
def handle (own : OwnChannels ι) (s : Reactor ι φ τ) (c : ι) : Reactor ι φ τ :=
  if Channel.Callback.read ∈ (s.poller_.channel c).handleEvent onlyRead then
    if c = own.timerfdChannel_ then { s with expired := false }
    else if c = own.wakeupChannel_ then { s with loop := s.loop.exec .handleRead }
    else s
  else s

def exec (own : OwnChannels ι) (s : Reactor ι φ τ) : ReactorEvent ι φ τ → Option (Reactor ι φ τ)
  | .on e => some { s with loop := s.loop.exec e }
  | .poll outcome => (s.poller_.poll [] outcome).map fun r =>
    { s with
      poller_ := { r.1 with life := s.poller_.life }
      activeChannels_ := r.2
      loop := s.loop.exec (.poll (decide (own.wakeupChannel_ ∈ r.2))) }
  | .handleEvent =>
    match s.activeChannels_ with
    | [] => none
    | c :: activeChannels => some ({ s with activeChannels_ := activeChannels }.handle own c)
  | .call call => (s.poller_.step call).map fun p => { s with poller_ := p }
  | .expire => some { s with expired := true }

def step (own : OwnChannels ι) : Reactor ι φ τ → ReactorEvent ι φ τ → Option (Reactor ι φ τ) :=
  Run.restrict (Enabled own) (exec own)

/-- The steps of the loop that a step stands for. -/
def abstractly (own : OwnChannels ι) (s : Reactor ι φ τ) : ReactorEvent ι φ τ → List (LoopEvent φ τ)
  | .on e => [e]
  | .poll outcome => (s.poller_.poll [] outcome).elim [] fun r =>
    [.poll (decide (own.wakeupChannel_ ∈ r.2))]
  | .handleEvent => if s.activeChannels_.head? = some own.wakeupChannel_ then [.handleRead] else []
  | _ => []

/-! ## What a poll reports -/

/-- What has the least place comes first in a list that is ordered by place. -/
theorem eq_cons_of_least {ι : Type*} {place : ι → ℤ} {l : List ι} {c : ι}
    (hl : l.Pairwise fun a b => place a < place b) (hc : c ∈ l) (hle : ∀ d ∈ l, place c ≤ place d) :
    ∃ rest, l = c :: rest := by
  cases l with
  | nil => exact absurd hc List.not_mem_nil
  | cons d rest =>
      rcases List.mem_cons.1 hc with rfl | hc
      · exact ⟨rest, rfl⟩
      · have hlt := (List.pairwise_cons.1 hl).1 c hc
        have := hle d List.mem_cons_self
        omega

theorem readEvents_pos (readable : Bool) : 0 < (readEvents readable).toInt ↔ readable = true := by
  cases readable <;> decide

theorem signExtend_readEvents : (readEvents true).signExtend 32 = POLLIN := by decide

/-- The channel of the loop's own is found exactly if there is something to read. -/
theorem mem_found_iff {D : Descriptors ι} {p : Tracked ι} {c : ι} {i : ℕ} (W : p.Watches D c i)
    {revents : ℕ → BitVec 16} {q : Polling ι} {found : List ι}
    (C : Polling.Collected (fun r => 0 < r.toInt) p.registered p.toPolling revents [] q found)
    {readable : Bool} (hrevents : revents (p.channel c).index_.toNat = readEvents readable) :
    (c ∈ found ↔ readable = true) ∧ (c ∈ found → (q.channel c).revents_ = POLLIN) := by
  rw [W.index, Int.toNat_natCast] at hrevents
  obtain ⟨old, hold⟩ := W.entry
  have hentry : (p.toPolling.reported revents).entry c =
      some ⟨D.fd c, Channel.kReadEvent.setWidth 16, revents i⟩ := by
    have hplace : (p.toPolling.reported revents).entry c =
        (p.toPolling.reported revents).pollfds_[i]? := Polling.entry_of_index W.index
    rw [hplace, Polling.getElem?_reported, hold]
    rfl
  have hmem : c ∈ found ↔ readable = true := by
    rw [C.mem_iff, ← readEvents_pos, ← hrevents]
    constructor
    · rintro ⟨-, pfd, hpfd, hpos⟩
      obtain rfl := Option.some.inj (hentry.symm.trans hpfd)
      exact hpos
    · exact fun hpos => ⟨W.life, _, hentry, hpos⟩
  refine ⟨hmem, fun hc => ?_⟩
  obtain ⟨pfd, hpfd, hset⟩ := C.set c hc
  obtain rfl := Option.some.inj (hentry.symm.trans hpfd)
  rw [hset, Channel.set_revents]
  show (revents i).signExtend 32 = POLLIN
  rw [hrevents, hmem.1 hc, signExtend_readEvents]

/-- The channels of the loop's own that a poll reports. -/
def reported (own : OwnChannels ι) (s : Reactor ι φ τ) : List ι :=
  (if s.expired then [own.timerfdChannel_] else []) ++
    (if s.loop.wakeupFd_ ≠ 0 then [own.wakeupChannel_] else [])

/-- The invariant of the machine. -/
structure Inv (own : OwnChannels ι) (D : Descriptors ι) (s : Reactor ι φ τ) : Prop where
  poller : Tracked.Inv D s.poller_
  timerfd : s.poller_.Watches D own.timerfdChannel_ 0
  wakeup : s.poller_.Watches D own.wakeupChannel_ 1
  nodup : s.activeChannels_.Nodup
  idle : s.loop.place.inHandlers = false → s.activeChannels_ = []
  handling : ∀ b, s.loop.place = .handling b → (own.wakeupChannel_ ∈ s.activeChannels_ ↔ b = true)
  reports : ∀ c ∈ s.activeChannels_, c = own.timerfdChannel_ ∨ c = own.wakeupChannel_ →
    (s.poller_.channel c).revents_ = POLLIN

/-- What a `::poll` that has not failed leads to: the channels of the loop's own come first. -/
structure Polled (own : OwnChannels ι) (D : Descriptors ι) (s : Reactor ι φ τ)
    (revents : ℕ → BitVec 16) (q : Polling ι) (found : List ι) : Prop where
  result : s.poller_.poll [] (.ready revents) = some (q, found)
  collected : Polling.Collected (fun r => 0 < r.toInt) s.poller_.registered s.poller_.toPolling
    revents [] q found
  first : ∃ rest, found = s.reported own ++ rest ∧ own.timerfdChannel_ ∉ rest ∧
    own.wakeupChannel_ ∉ rest
  reports : ∀ c ∈ found, c = own.timerfdChannel_ ∨ c = own.wakeupChannel_ →
    (q.channel c).revents_ = POLLIN

omit [DecidableEq τ] in
theorem Inv.polled {own : OwnChannels ι} {D : Descriptors ι} {s : Reactor ι φ τ} (I : Inv own D s)
    {revents : ℕ → BitVec 16} (h : s.Possible own (.ready revents)) :
    ∃ q found, Polled own D s revents q found := by
  obtain ⟨hpossible, htimerfd, hwakeup⟩ := h
  obtain ⟨q, found, C⟩ := I.poller.table.collected hpossible []
  obtain ⟨ht, htrev⟩ := mem_found_iff I.timerfd C htimerfd
  obtain ⟨hw, hwrev⟩ := mem_found_iff I.wakeup C hwakeup
  have hindex : ∀ c ∈ found, ∃ i : ℕ, (s.poller_.channel c).index_ = i := by
    intro c hc
    obtain ⟨i, hi, -⟩ := I.poller.table.index c ((C.mem_iff c).1 hc).1
    exact ⟨i, hi⟩
  have hbehind : ∀ c ∈ found, c ≠ own.timerfdChannel_ → (1 : ℤ) ≤ (s.poller_.channel c).index_ := by
    intro c hc hne
    obtain ⟨i, hi⟩ := hindex c hc
    have hzero : i ≠ 0 := by
      rintro rfl
      exact hne (I.poller.table.index_inj ((C.mem_iff c).1 hc).1 I.timerfd.life
        (hi.trans I.timerfd.index.symm))
    omega
  -- Without the timerfd's channel at the front, the wakeup channel has the least place.
  have hsecond : ∀ l : List ι, (∀ c ∈ l, c ∈ found) → own.timerfdChannel_ ∉ l →
      (own.wakeupChannel_ ∈ found → own.wakeupChannel_ ∈ l) →
      l.Pairwise (fun a b => (s.poller_.channel a).index_ < (s.poller_.channel b).index_) →
      ∃ rest, l = (if s.loop.wakeupFd_ ≠ 0 then [own.wakeupChannel_] else []) ++ rest ∧
        own.timerfdChannel_ ∉ rest ∧ own.wakeupChannel_ ∉ rest := by
    intro l hsub hnot hkeep hl
    by_cases hzero : s.loop.wakeupFd_ ≠ 0
    · rw [if_pos hzero]
      have hmem := hkeep (hw.2 (decide_eq_true hzero))
      obtain ⟨rest, rfl⟩ := eq_cons_of_least hl hmem fun d hd => by
        rw [I.wakeup.index]
        exact hbehind d (hsub d hd) fun heq => hnot (heq ▸ hd)
      refine ⟨rest, rfl, fun h => hnot (List.mem_cons_of_mem _ h), fun h => ?_⟩
      have hlt := (List.pairwise_cons.1 hl).1 _ h
      omega
    · rw [if_neg hzero]
      refine ⟨l, rfl, hnot, fun h => hzero ?_⟩
      exact of_decide_eq_true (hw.1 (hsub _ h))
  refine ⟨q, found, ⟨(Polling.poll_ready ..).trans C.result, C, ?_, ?_⟩⟩
  · unfold reported
    by_cases hexpired : s.expired = true
    · rw [if_pos hexpired]
      obtain ⟨l, rfl⟩ := eq_cons_of_least C.order (ht.2 hexpired) fun d hd => by
        obtain ⟨i, hi⟩ := hindex d hd
        rw [I.timerfd.index, hi]
        omega
      obtain ⟨hnot, -⟩ := List.nodup_cons.1 C.once
      obtain ⟨rest, hrest, hrest'⟩ := hsecond l (fun c hc => List.mem_cons_of_mem _ hc) hnot
        (fun h => (List.mem_cons.1 h).resolve_left (Ne.symm own.ne))
        (List.pairwise_cons.1 C.order).2
      exact ⟨rest, by rw [List.append_assoc, ← hrest]; rfl, hrest'⟩
    · rw [if_neg hexpired]
      exact hsecond found (fun c hc => hc) (fun h => hexpired (ht.1 h)) (fun h => h) C.order
  · rintro c hc (rfl | rfl)
    · exact htrev hc
    · exact hwrev hc

/-! ## One step -/

omit [DecidableEq τ] in
/-- The constructor succeeds: its two channels take the first two places. -/
theorem new_inv (own : OwnChannels ι) (D : Descriptors ι) :
    ∃ s : Reactor ι φ τ, new own D = some s ∧ Inv own D s ∧ s.loop = .new := by
  obtain ⟨p₁, h₁, I₁, W₁, hlen₁, hlife₁⟩ :=
    Tracked.watches_of_fresh (Tracked.init_inv D) (c := own.timerfdChannel_) rfl
  have hfresh : p₁.life own.wakeupChannel_ = .fresh := by
    rw [hlife₁, Function.update_of_ne (Ne.symm own.ne)]
    rfl
  obtain ⟨p₂, h₂, I₂, W₂, hlen₂, -⟩ := Tracked.watches_of_fresh I₁ hfresh
  have hallowed : p₁.Allowed (.update own.wakeupChannel_ Channel.kReadEvent) := by
    show p₁.life own.wakeupChannel_ ≠ .removed
    rw [hfresh]
    simp
  obtain ⟨W₁', -⟩ := W₁.update I₁ (Ne.symm own.ne) hallowed h₂
  rw [hlen₁] at W₂
  refine ⟨{ loop := .new, poller_ := p₂, activeChannels_ := [], expired := false }, ?_,
    ⟨I₂, W₁', W₂, List.nodup_nil, fun _ => rfl, fun b hb => ?_, fun c hc => ?_⟩, rfl⟩
  · rw [new, h₁, Option.bind_some, h₂]
    rfl
  · exact absurd hb (by simp [Loop.new])
  · exact absurd hc List.not_mem_nil

omit [DecidableEq ι] [DecidableEq τ] in
theorem mem_reported {own : OwnChannels ι} {s : Reactor ι φ τ} :
    own.wakeupChannel_ ∈ s.reported own ↔ s.loop.wakeupFd_ ≠ 0 := by
  have hne : own.wakeupChannel_ ≠ own.timerfdChannel_ := Ne.symm own.ne
  unfold reported
  split_ifs with hexpired hzero hzero
  · simp [hzero]
  · simp [hne, hzero]
  · simp [hzero]
  · simp [hzero]

omit [DecidableEq τ] in
theorem Polled.wakeup_mem_iff {own : OwnChannels ι} {D : Descriptors ι} {s : Reactor ι φ τ}
    {revents : ℕ → BitVec 16} {q : Polling ι} {found : List ι} (P : Polled own D s revents q found) :
    own.wakeupChannel_ ∈ found ↔ s.loop.wakeupFd_ ≠ 0 := by
  obtain ⟨rest, rfl, -, hnot⟩ := P.first
  rw [List.mem_append, or_iff_left hnot, mem_reported]

omit [DecidableEq ι] in
/-- The steps that are neither a poll nor about channels leave the loop thread among the handlers, or
    outside of them. -/
theorem exec_place_cases {s : Reactor ι φ τ} {e : LoopEvent φ τ} (hplain : s.Plain e)
    (he : s.loop.Enabled e) : (s.activeChannels_ = [] ∧ e = .doPendingFunctors) ∨
      (s.loop.exec e).place = s.loop.place ∨
      (s.loop.place.inHandlers = false ∧ (s.loop.exec e).place.inHandlers = false) := by
  cases e with
  | loop => exact .inr (.inr ⟨by rw [he.1]; rfl, rfl⟩)
  | clearQuit =>
      have hplace : s.loop.place = .starting := he
      exact .inr (.inr ⟨by rw [hplace]; rfl, rfl⟩)
  | test =>
      have hplace : s.loop.place = .testing := he
      refine .inr (.inr ⟨by rw [hplace]; rfl, ?_⟩)
      simp only [Loop.exec]
      split <;> rfl
  | poll reported => exact hplain.elim
  | handleRead => exact hplain.elim
  | doPendingFunctors => exact .inl ⟨hplain, rfl⟩
  | swap =>
      have hplace : s.loop.place = .swapping := he
      exact .inr (.inr ⟨by rw [hplace]; rfl, rfl⟩)
  | call =>
      obtain ⟨⟨r, hplace⟩, -, hne⟩ := he
      refine .inr (.inr ⟨by rw [hplace]; rfl, ?_⟩)
      obtain ⟨f, functors, hcons⟩ := List.exists_cons_of_ne_nil hne
      rw [Loop.exec, Loop.call_of_cons hcons]
      rfl
  | endPending =>
      obtain ⟨⟨r, hplace⟩, -⟩ := he
      exact .inr (.inr ⟨by rw [hplace]; rfl, rfl⟩)
  | queueInLoop t f => exact .inr (.inl rfl)
  | runInLoop t f => exact .inr (.inl (Loop.runInLoop_place ..))
  | quit t => exact .inr (.inl rfl)
  | finish t => exact .inr (.inl (Loop.finish_place ..))

omit [DecidableEq ι] in
theorem Inv.on {own : OwnChannels ι} {D : Descriptors ι} {s : Reactor ι φ τ} (I : Inv own D s)
    {e : LoopEvent φ τ} (hplain : s.Plain e) (he : s.loop.Enabled e) :
    Inv own D { s with loop := s.loop.exec e } := by
  rcases exec_place_cases hplain he with ⟨hempty, rfl⟩ | hsame | ⟨hbefore, hafter⟩
  · exact ⟨I.poller, I.timerfd, I.wakeup, I.nodup, fun _ => hempty, fun b hb => absurd hb (by
      simp [Loop.exec]), I.reports⟩
  · exact ⟨I.poller, I.timerfd, I.wakeup, I.nodup, fun h => I.idle (hsame ▸ h),
      fun b hb => I.handling b (hsame ▸ hb), I.reports⟩
  · refine ⟨I.poller, I.timerfd, I.wakeup, I.nodup, fun _ => I.idle hbefore, fun b hb => ?_,
      I.reports⟩
    have hplace : (s.loop.exec e).place = .handling b := hb
    rw [hplace] at hafter
    exact absurd hafter (by simp [Place.inHandlers])

/-- The read callback of a channel of the loop's own is called when the channel is handled. -/
theorem read_mem_handleEvent {c : Channel} (h : c.revents_ = POLLIN) :
    Channel.Callback.read ∈ c.handleEvent onlyRead := by
  rw [Channel.handleEvent, h]
  decide

/-- Handling a channel. -/
theorem Inv.handle {own : OwnChannels ι} {D : Descriptors ι} {s : Reactor ι φ τ} (I : Inv own D s)
    (hplace : s.loop.place.inHandlers = true) (hidle : s.loop.task none = .idle) {c : ι}
    {activeChannels : List ι} (hactive : s.activeChannels_ = c :: activeChannels) :
    Inv own D (Reactor.handle own { s with activeChannels_ := activeChannels } c) ∧
      Run.run Loop.step s.loop (if some c = some own.wakeupChannel_ then [.handleRead] else []) =
        some (Reactor.handle own { s with activeChannels_ := activeChannels } c).loop := by
  have hmem : c ∈ s.activeChannels_ := by
    rw [hactive]
    exact List.mem_cons_self
  obtain ⟨hnot, hnodup⟩ := List.nodup_cons.1 (hactive ▸ I.nodup)
  have hreports : ∀ d ∈ activeChannels, d = own.timerfdChannel_ ∨ d = own.wakeupChannel_ →
      (s.poller_.channel d).revents_ = POLLIN := fun d hd =>
    I.reports d (hactive ▸ List.mem_cons_of_mem c hd)
  -- A channel other than the wakeup channel leaves the loop as it is.
  have hother (hne : c ≠ own.wakeupChannel_) (expired : Bool) :
      Inv own D { s with activeChannels_ := activeChannels, expired := expired } := by
    refine ⟨I.poller, I.timerfd, I.wakeup, hnodup, fun h => ?_, fun b hb => ?_, hreports⟩
    · exact absurd (hplace.symm.trans h) (by simp)
    · rw [← I.handling b hb, hactive, List.mem_cons, or_iff_right (Ne.symm hne)]
  unfold Reactor.handle
  by_cases htimerfd : c = own.timerfdChannel_
  · have hread := read_mem_handleEvent (I.reports c hmem (.inl htimerfd))
    have hne : c ≠ own.wakeupChannel_ := htimerfd ▸ own.ne
    rw [if_pos hread, if_pos htimerfd, if_neg (by simpa using hne)]
    exact ⟨hother hne false, rfl⟩
  · by_cases hwakeup : c = own.wakeupChannel_
    · have hread := read_mem_handleEvent (I.reports c hmem (.inr hwakeup))
      rw [if_pos hread, if_neg htimerfd, if_pos hwakeup, if_pos (by rw [hwakeup])]
      have hhandling : s.loop.place = .handling true := by
        cases hp : s.loop.place with
        | handling b => rw [(I.handling b hp).1 (hwakeup ▸ hmem)]
        | _ => exact absurd (hp ▸ hplace) (by simp [Place.inHandlers])
      have hstep : s.loop.step .handleRead = some (s.loop.exec .handleRead) :=
        Loop.step_eq_some.2 ⟨⟨hhandling, hidle⟩, rfl⟩
      refine ⟨⟨I.poller, I.timerfd, I.wakeup, hnodup, fun h => ?_, fun b hb => ?_, hreports⟩,
        Run.run_singleton.trans hstep⟩
      · exact absurd h (by simp [Loop.exec, Loop.handleRead, Place.inHandlers])
      · obtain rfl : false = b := by simpa [Loop.exec, Loop.handleRead] using hb
        exact ⟨fun h => absurd (hwakeup ▸ h) hnot, fun h => absurd h (by simp)⟩
    · rw [if_neg htimerfd, if_neg hwakeup, ite_self, if_neg (by simpa using hwakeup)]
      exact ⟨hother hwakeup s.expired, rfl⟩

/-- A poll. -/
theorem Inv.poll {own : OwnChannels ι} {D : Descriptors ι} {s : Reactor ι φ τ} (I : Inv own D s)
    (hplace : s.loop.place = .polling) {outcome : PollOutcome} (h : s.Possible own outcome) :
    ∃ r, s.poller_.poll [] outcome = some r ∧
      Inv own D { s with
        poller_ := { r.1 with life := s.poller_.life }
        activeChannels_ := r.2
        loop := s.loop.exec (.poll (decide (own.wakeupChannel_ ∈ r.2))) } ∧
      s.loop.step (.poll (decide (own.wakeupChannel_ ∈ r.2))) =
        some (s.loop.exec (.poll (decide (own.wakeupChannel_ ∈ r.2)))) := by
  -- Whatever is reported, the loop thread is among the handlers then.
  have hhandling (found : List ι) (b : Bool)
      (hb : (s.loop.exec (.poll (decide (own.wakeupChannel_ ∈ found)))).place = .handling b) :
      own.wakeupChannel_ ∈ found ↔ b = true := by
    obtain rfl : decide (own.wakeupChannel_ ∈ found) = b := by simpa [Loop.exec] using hb
    exact decide_eq_true_iff.symm
  have hhandlers (found : List ι)
      (h : (s.loop.exec (.poll (decide (own.wakeupChannel_ ∈ found)))).place.inHandlers = false) :
      found = [] := absurd h (by simp [Loop.exec, Place.inHandlers])
  cases outcome with
  | ready revents =>
      obtain ⟨q, found, P⟩ := I.polled h
      have htable : Tracked.Inv D { q with life := s.poller_.life } := by
        refine Tracked.eventStep_inv (e := .poll (.ready revents)) I.poller ?_
        refine Run.restrict_eq_some.2 ⟨h.1, ?_⟩
        rw [Tracked.eventStep, P.result]
        rfl
      refine ⟨(q, found), P.result, ?_, Loop.step_eq_some.2 ⟨⟨hplace, fun hmem => ?_⟩, rfl⟩⟩
      · exact ⟨htable, I.timerfd.poll P.collected, I.wakeup.poll P.collected, P.collected.once,
          hhandlers found, hhandling found, P.reports⟩
      · exact P.wakeup_mem_iff.1 (of_decide_eq_true hmem)
  | err =>
      refine ⟨(s.poller_.toPolling, []), rfl, ?_, Loop.step_eq_some.2 ⟨⟨hplace, fun hmem => ?_⟩, rfl⟩⟩
      · exact ⟨I.poller, I.timerfd, I.wakeup, List.nodup_nil, hhandlers [], hhandling [],
          fun c hc => absurd hc List.not_mem_nil⟩
      · exact absurd hmem (by simp)

omit [DecidableEq τ] in
/-- A call of the poller for a channel of others. -/
theorem Inv.call {own : OwnChannels ι} {D : Descriptors ι} {s : Reactor ι φ τ} (I : Inv own D s)
    {call : Call ι} (hallowed : s.poller_.Allowed call) (htimerfd : call.channel ≠ own.timerfdChannel_)
    (hwakeup : call.channel ≠ own.wakeupChannel_) {p : Tracked ι} (h : s.poller_.step call = some p) :
    Inv own D { s with poller_ := p } := by
  have I' : Tracked.Inv D p := Tracked.step_inv I.poller (Run.restrict_eq_some.2 ⟨hallowed, h⟩)
  have hkept : (p.Watches D own.timerfdChannel_ 0 ∧
      (p.channel own.timerfdChannel_).revents_ = (s.poller_.channel own.timerfdChannel_).revents_) ∧
      p.Watches D own.wakeupChannel_ 1 ∧
      (p.channel own.wakeupChannel_).revents_ =
        (s.poller_.channel own.wakeupChannel_).revents_ := by
    cases call with
    | update d events =>
        exact ⟨I.timerfd.update I.poller htimerfd hallowed h, I.wakeup.update I.poller hwakeup hallowed h⟩
    | remove d =>
        -- The places of the two are taken, so this one is behind them.
        obtain ⟨j, hj, -⟩ := I.poller.table.index d hallowed
        have hzero : j ≠ 0 := by
          rintro rfl
          exact htimerfd (I.poller.table.index_inj hallowed I.timerfd.life
            (hj.trans I.timerfd.index.symm))
        have hone : j ≠ 1 := by
          rintro rfl
          exact hwakeup (I.poller.table.index_inj hallowed I.wakeup.life
            (hj.trans I.wakeup.index.symm))
        exact ⟨I.timerfd.remove I.poller (by omega) hallowed h,
          I.wakeup.remove I.poller (by omega) hallowed h⟩
  obtain ⟨⟨W₀, hrev₀⟩, W₁, hrev₁⟩ := hkept
  refine ⟨I', W₀, W₁, I.nodup, I.idle, I.handling, ?_⟩
  rintro c hc (rfl | rfl)
  · exact hrev₀.trans (I.reports _ hc (.inl rfl))
  · exact hrev₁.trans (I.reports _ hc (.inr rfl))

/-- **What one step does.** It keeps the invariant, and is a step of the loop, or none. -/
theorem Inv.step {own : OwnChannels ι} {D : Descriptors ι} {s s' : Reactor ι φ τ}
    {e : ReactorEvent ι φ τ} (I : Inv own D s) (h : Reactor.step own s e = some s') :
    Inv own D s' ∧ Run.run Loop.step s.loop (abstractly own s e) = some s'.loop := by
  obtain ⟨he, hexec⟩ := Run.restrict_eq_some.1 h
  cases e with
  | on e =>
      obtain ⟨hplain, he⟩ := he
      obtain rfl := Option.some.inj hexec
      exact ⟨I.on hplain he, Run.run_singleton.trans (Loop.step_eq_some.2 ⟨he, rfl⟩)⟩
  | poll outcome =>
      obtain ⟨hplace, hpossible⟩ := he
      obtain ⟨r, hr, I', hstep⟩ := I.poll hplace hpossible
      rw [exec, hr, Option.map_some, Option.some.injEq] at hexec
      rw [← hexec]
      refine ⟨I', ?_⟩
      rw [abstractly, hr]
      exact Run.run_singleton.trans hstep
  | handleEvent =>
      obtain ⟨hplace, hidle⟩ := he
      rw [exec] at hexec
      cases hactive : s.activeChannels_ with
      | nil =>
          rw [hactive] at hexec
          exact absurd hexec (by simp)
      | cons c activeChannels =>
          rw [hactive, Option.some.injEq] at hexec
          rw [← hexec, abstractly, hactive]
          exact I.handle hplace hidle hactive
  | call call =>
      obtain ⟨-, hallowed, htimerfd, hwakeup⟩ := he
      obtain ⟨p, hp, rfl⟩ := Option.map_eq_some_iff.1 hexec
      exact ⟨I.call hallowed htimerfd hwakeup hp, rfl⟩
  | expire =>
      obtain rfl := Option.some.inj hexec
      exact ⟨⟨I.poller, I.timerfd, I.wakeup, I.nodup, I.idle, I.handling, I.reports⟩, rfl⟩

/-! ## Whole runs -/

/-- **Refinement.** Every run of the loop over its poller is a run of the loop, in which a `::poll`
    reports the wakeup channel or not, and `handleRead` runs once if it does. -/
theorem simulates_loop {own : OwnChannels ι} {D : Descriptors ι} {s₀ s : Reactor ι φ τ}
    {es : List (ReactorEvent ι φ τ)} (hnew : new own D = some s₀)
    (hrun : Run.run (step own) s₀ es = some s) :
    Run.run Loop.step .new (Run.image (step own) (abstractly own) s₀ es) = some s.loop := by
  obtain ⟨s₁, hs₁, I, hloop⟩ := new_inv (φ := φ) (τ := τ) own D
  obtain rfl : s₀ = s₁ := Option.some.inj (hnew.symm.trans hs₁)
  rw [← hloop]
  exact Run.run_image (I := Inv own D) (f := Reactor.loop) (fun u e u' I h => (I.step h).1)
    (fun u e u' I h => (I.step h).2) I hrun

/-- A functor of another thread, pushed while the loop thread polls. -/
theorem simulates_loop_functor :
    let D : Descriptors Bool := ⟨fun c => if c then 4 else 3, by decide, by decide⟩
    let own : OwnChannels Bool := ⟨false, true, by decide⟩
    let es : List (ReactorEvent Bool ℕ Unit) := [.on .loop, .on .clearQuit, .on .test,
      .on (.queueInLoop (some ()) 7), .on (.finish (some ())),
      .poll (.ready fun i => if i = 1 then 1 else 0), .handleEvent, .on .doPendingFunctors,
      .on .swap, .on .call]
    ∃ s₀ s, new own D = some s₀ ∧ Run.run (step own) s₀ es = some s ∧ s.loop.executed = [(7, 1)] ∧
      Run.run Loop.step .new (Run.image (step own) (abstractly own) s₀ es) = some s.loop := by
  refine ⟨_, _, rfl, rfl, rfl, ?_⟩
  exact simulates_loop rfl rfl

/-- **The channels of the loop's own.** Whatever the other channels do, these two stay registered for
    reading in the first two places of `pollfds_`; and in every state in which the loop thread is about
    to poll, if there is something to read from the timerfd or the eventfd, `::poll` returns at once,
    and if it does not fail, the handlers of these two run before all others. -/
theorem own_channels_first (own : OwnChannels ι) (D : Descriptors ι) :
    ∃ s₀ : Reactor ι φ τ, new own D = some s₀ ∧ ∀ es, Run.Along (step own) (fun s =>
      s.poller_.Watches D own.timerfdChannel_ 0 ∧ s.poller_.Watches D own.wakeupChannel_ 1 ∧
      (s.loop.place = .polling → ∀ revents, s.Possible own (.ready revents) →
        (s.expired = true ∨ s.loop.wakeupFd_ ≠ 0 →
          0 < (s.poller_.toPolling.reported revents).numEvents) ∧
        ∃ s' rest, step own s (.poll (.ready revents)) = some s' ∧
          s'.activeChannels_ = s.reported own ++ rest ∧
          own.timerfdChannel_ ∉ rest ∧ own.wakeupChannel_ ∉ rest)) s₀ es := by
  obtain ⟨s₀, hnew, I, -⟩ := new_inv (φ := φ) (τ := τ) own D
  refine ⟨s₀, hnew, fun es => Run.Along.of_inv (fun u e u' I h => (I.step h).1) ?_ I es⟩
  intro s I
  refine ⟨I.timerfd, I.wakeup, fun hplace revents hpossible => ?_⟩
  obtain ⟨q, found, P⟩ := I.polled hpossible
  obtain ⟨rest, hfound, hrest⟩ := P.first
  constructor
  · intro hreadable
    have hne : found ≠ [] := by
      rw [hfound]
      rcases hreadable with hexpired | hzero
      · simp [reported, hexpired]
      · simp [reported, hzero]
    obtain ⟨c, hc⟩ := List.exists_mem_of_ne_nil _ hne
    obtain ⟨-, pfd, hpfd, hpos⟩ := (P.collected.mem_iff c).1 hc
    refine List.countP_pos_iff.2 ⟨pfd, ?_, ?_⟩
    · unfold Polling.entry at hpfd
      split at hpfd
      · exact absurd hpfd (by simp)
      · exact List.mem_of_getElem? hpfd
    · rw [bne_iff_ne]
      rintro hzero
      simp [hzero] at hpos
  · obtain ⟨r, hr, -⟩ := I.poll hplace hpossible
    obtain rfl : r = (q, found) := Option.some.inj (hr.symm.trans P.result)
    refine ⟨{ s with
      poller_ := { q with life := s.poller_.life }
      activeChannels_ := found
      loop := s.loop.exec (.poll (decide (own.wakeupChannel_ ∈ found))) }, rest, ?_, hfound, hrest⟩
    refine Run.restrict_eq_some.2 ⟨⟨hplace, hpossible⟩, ?_⟩
    rw [exec, hr]
    rfl

end Reactor

end WwjMuduo
