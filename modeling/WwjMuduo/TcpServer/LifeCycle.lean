import WwjMuduo.TcpServer.Steps

set_option autoImplicit false

/-! # The life cycle of a connection

What should have become of a connection whose `handleClose` has run, once the loops have called what
was queued, and what of the others. `handleClose` only drops the interest of the channel, so a closed
connection never leaves the server; the rest of the life cycle is as it should be. -/

namespace WwjMuduo

namespace TcpServer

/-- Neither the loop of the server nor that of the connection has a functor to call. -/
def Quiescent (s : TcpServer) (c : ConnId) : Prop :=
  s.queue baseLoop = [] ∧ s.queue (s.conn c).loop_ = []

/-- Nothing of a connection is left but its object. -/
structure TornDown (s : TcpServer) (c : ConnId) : Prop where
  connections : ∀ name, s.connections_.lookup name ≠ some c
  poller : ∀ fd, (s.loops (s.conn c).loop_).poller_.channels_.lookup fd ≠ some c
  state : (s.conn c).state_ = .kDisconnected
  callbacks : (s.conn c).effects.count .connectionCallback = 2

/-- A connection is registered: in the server at any time, in its poller as soon as its loops have
    called what was queued. -/
structure Kept (s : TcpServer) (c : ConnId) : Prop where
  connections : s.connections_.lookup (s.conn c).name_ = some c
  poller : s.Quiescent c → s.Running c ∧
    (s.loops (s.conn c).loop_).poller_.channels_.lookup (s.conn c).socket_ = some c

def LifeCycle (s : TcpServer) : Prop :=
  (∀ c ∈ s.closed, s.Quiescent c → s.TornDown c) ∧ ∀ c < s.made, c ∉ s.closed → s.Kept c

/-- A report of `::poll` and a `readv` that do not lead to `handleClose`. -/
def KeepsOpen : Event → Prop
  | .dispatch _ _ revents readv _ =>
    let revents := revents.signExtend 32
    (hasBits revents POLLHUP → hasBits revents POLLIN) ∧
      (hasBits revents (POLLIN ||| POLLPRI ||| POLLRDHUP) → eof readv = false)
  | _ => True

/-! ## In a reachable state -/

section Sound

variable {s : TcpServer} {c : ConnId}

theorem Sound.kept (S : Sound s s.queue) (hc : c < s.made) : s.Kept c := by
  have H := S.lives c hc
  refine ⟨H.present, ?_⟩
  rintro ⟨-, hqueue⟩
  -- A connection that is not established waits for its functor, and nothing waits here.
  have he : s.Established c := by
    by_contra hne
    have hwaiting := H.waiting hne
    rw [hqueue, List.count_nil] at hwaiting
    exact Nat.zero_ne_one hwaiting
  refine ⟨H.running he, ?_⟩
  have hlookup := (S.table (s.conn c).loop_).lookup c ⟨hc, rfl, he⟩
  rw [← H.fd]
  exact hlookup

/-- A connection is never torn down. -/
theorem Sound.not_tornDown (S : Sound s s.queue) (hc : c < s.made) : ¬ s.TornDown c :=
  fun h => h.connections _ (S.lives c hc).present

theorem Sound.lifeCycle_iff (S : Sound s s.queue) :
    s.LifeCycle ↔ ∀ c ∈ s.closed, ¬ s.Quiescent c := by
  constructor
  · intro h c hc hquiescent
    exact S.not_tornDown (S.closed c hc) (h.1 c hc hquiescent)
  · intro h
    exact ⟨fun c hc hquiescent => absurd hquiescent (h c hc), fun c hc _ => S.kept hc⟩

end Sound

/-! ## Only `handleClose` closes -/

section Closed

variable {s s' : TcpServer} {l : LoopId} {c : ConnId} {f : EventLoop.Functor} {write : WriteOutcome}

theorem closed_perform {e : Effect} (h : s.perform l c e = some s') : s'.closed = s.closed := by
  cases e with
  | updateChannel =>
      obtain ⟨p, -, rfl⟩ := Option.map_eq_some_iff.1 h
      rfl
  | removeChannel =>
      obtain ⟨p, -, rfl⟩ := Option.map_eq_some_iff.1 h
      rfl
  | closeCallback =>
      rw [← Option.some.inj h]
      unfold removeConnection
      split_ifs
      · rfl
      · rfl
  | _ =>
      rw [← Option.some.inj h]

theorem closed_invoke {member : TcpConnection → Option TcpConnection}
    (h : s.invoke l c member = some s') : s'.closed = s.closed := by
  obtain ⟨conn', -, hrun⟩ := Option.bind_eq_some_iff.1 h
  have hstep : ∀ t e t', t.closed = s.closed → perform l c t e = some t' →
      t'.closed = s.closed := fun t e t' ht he => (closed_perform he).trans ht
  exact Run.inv_run (I := fun t => t.closed = s.closed) hstep rfl hrun

theorem closed_call (h : s.call l f write = some s') : s'.closed = s.closed := by
  cases f with
  | removeConnectionInLoop c =>
      rw [← Option.some.inj h]
      rfl
  | _ =>
      unfold call at h
      exact closed_invoke h

theorem closed_runInLoop {thread : Option LoopId} (h : s.runInLoop thread l f write = some s') :
    s'.closed = s.closed := by
  unfold runInLoop at h
  split_ifs at h
  · exact closed_call h
  · rw [← Option.some.inj h]
    rfl

theorem closed_callFunctor (h : s.callFunctor l write = some s') : s'.closed = s.closed := by
  unfold callFunctor at h
  cases hf : (s.loops l).functors with
  | nil =>
      rw [hf] at h
      exact absurd h (by simp)
  | cons f rest =>
      rw [hf] at h
      simp only at h
      exact (closed_call h).trans rfl

theorem closed_newConnection {sockfd : ℤ} {peerAddr localAddr : InetAddress}
    {memory : Uninitialised} (h : s.newConnection sockfd peerAddr localAddr memory = some s') :
    s'.closed = s.closed := by
  obtain ⟨ioLoop, t, A, hrun⟩ := newConnection_eq_some h
  rw [closed_runInLoop hrun, A.closed]

theorem closed_send {thread : Option LoopId} {message : List UInt8}
    (h : s.send thread c message write = some s') : s'.closed = s.closed := by
  unfold send at h
  simp only at h
  split_ifs at h
  · exact closed_runInLoop h
  · rw [← Option.some.inj h]

theorem closed_shutdown {thread : Option LoopId} (h : s.shutdown thread c = some s') :
    s'.closed = s.closed := by
  unfold shutdown at h
  simp only at h
  split_ifs at h
  · exact (closed_runInLoop h).trans rfl
  · rw [← Option.some.inj h]

/-- The callbacks that do not call `handleClose`. -/
def Harmless (readv : Buffer.ReadOutcome) : Channel.Callback → Prop
  | .close => False
  | .read => eof readv = false
  | _ => True

theorem closed_handle {readv : Buffer.ReadOutcome} {callback : Channel.Callback}
    (h : s.handle l c readv write callback = some s') :
    s'.closed = [] ↔ s.closed = [] ∧ Harmless readv callback := by
  unfold handle at h
  cases callback with
  | close =>
      rw [closed_invoke h]
      simp [markClosed, Harmless]
  | error =>
      rw [closed_invoke h]
      simp [Harmless]
  | read =>
      rw [closed_invoke h]
      cases heof : eof readv with
      | true => simp [markClosed, Harmless, heof]
      | false => simp [Harmless, heof]
  | write =>
      rw [closed_invoke h]
      simp [Harmless]

/-- `handleEvent` calls `handleClose` unless the report and the `readv` keep the connection open. -/
theorem harmless_handleEvent {channel : Channel} {readv : Buffer.ReadOutcome} {i : ℕ}
    {revents : BitVec 16} (hrevents : channel.revents_ = revents.signExtend 32) :
    (∀ callback ∈ channel.handleEvent fun _ => true, Harmless readv callback) ↔
      KeepsOpen (.dispatch l i revents readv write) := by
  have hfilter (callbacks : List Channel.Callback) :
      callbacks.filter (fun _ => true) = callbacks := by simp
  have hif (p : Prop) [Decidable p] (callback : Channel.Callback) :
      (∀ x ∈ if p then [callback] else [], Harmless readv x) ↔ (p → Harmless readv callback) := by
    by_cases hp : p
    · simp [hp]
    · simp [hp]
  simp only [Channel.handleEvent, hfilter, List.forall_mem_append, hif, KeepsOpen, hrevents]
  simp [Harmless]

/-- A step closes a connection exactly if it dispatches to `handleClose`. -/
theorem closed_step {e : Event} (h : step s e = some s') :
    s'.closed = [] ↔ s.closed = [] ∧ KeepsOpen e := by
  obtain ⟨-, hexec⟩ := Run.restrict_eq_some.1 h
  cases e with
  | newConnection sockfd peerAddr localAddr memory =>
      rw [closed_newConnection hexec]
      simp [KeepsOpen]
  | dispatch l i revents readv write =>
      obtain ⟨pfd, -, hexec⟩ := Option.bind_eq_some_iff.1 hexec
      obtain ⟨c, -, hrun⟩ := Option.bind_eq_some_iff.1 hexec
      rw [Run.run_iff_forall (fun _ _ _ h => closed_handle h) hrun, harmless_handleEvent rfl]
      rfl
  | doPendingFunctors l =>
      rw [← Option.some.inj hexec]
      simp [KeepsOpen, TcpServer.doPendingFunctors, setLoop]
  | callFunctor l write =>
      rw [closed_callFunctor hexec]
      simp [KeepsOpen]
  | send thread c message write =>
      rw [closed_send hexec]
      simp [KeepsOpen]
  | shutdown thread c =>
      rw [closed_shutdown hexec]
      simp [KeepsOpen]

end Closed

/-! ## Whole runs -/

/-- **Life cycle.** For every server and every order of events, the life cycle is as it should be in
    every state of a run that never dispatches to `handleClose`. In a state that any run reaches, it
    is so exactly if every connection whose `handleClose` has run still waits for its loops. -/
theorem lifeCycle_along (name : String) (numThreads : ℕ) (events : List Event) :
    ((∀ e ∈ events, KeepsOpen e) → Run.Along step LifeCycle (start name numThreads) events) ∧
      ∀ s, Run.run step (start name numThreads) events = some s →
        (s.closed = [] ↔ ∀ e ∈ events, KeepsOpen e) ∧
          (s.LifeCycle ↔ ∀ c ∈ s.closed, ¬ s.Quiescent c) := by
  have hclosed : ∀ events s, Run.run step (start name numThreads) events = some s →
      (s.closed = [] ↔ ∀ e ∈ events, KeepsOpen e) := by
    intro events s hrun
    rw [Run.run_iff_forall (fun _ _ _ h => closed_step h) hrun]
    exact and_iff_right rfl
  refine ⟨fun hopen => Run.along_iff_prefix.2 fun pre s hpre hrun => ?_, fun s hrun =>
    ⟨hclosed events s hrun, (sound_run hrun).lifeCycle_iff⟩⟩
  have hnil : s.closed = [] := (hclosed pre s hrun).2 fun e he => hopen e (hpre.subset he)
  refine (sound_run hrun).lifeCycle_iff.2 fun c hc => ?_
  rw [hnil] at hc
  exact absurd hc List.not_mem_nil

/-- The peer of the only connection hangs up: nothing waits in any loop, and the server still holds
    the connection, which is still connected. -/
theorem lifeCycle_fails_after_hangup :
    ∃ s, Run.run step (start "s" 0)
      [.newConnection 5 ⟨.zero⟩ ⟨.zero⟩ (.asMeant ⟨.zero⟩),
        .dispatch 0 0 0x10 (.err 0) (.count 0)] = some s ∧
      s.closed = [0] ∧ s.Quiescent 0 ∧ s.connections_.lookup "s#1" = some 0 ∧
      (s.conn 0).state_ = .kConnected ∧ ¬ s.LifeCycle := by
  refine ⟨_, rfl, rfl, ⟨rfl, rfl⟩, rfl, rfl, ?_⟩
  intro h
  exact (h.1 0 (List.mem_cons_self) ⟨rfl, rfl⟩).connections "s#1" rfl

end TcpServer

end WwjMuduo
